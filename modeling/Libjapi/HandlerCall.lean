/-
# `Libjapi.HandlerCall` — what the handler of a request is given

`japi_process_message` prepares the response before it calls the handler, and
adds what the handler wrote to it afterwards.  `handlerCall` is the call in the
middle, with the objects around it; `envelope` is the response as it stands then.

    the function is `handlerCall` and what follows it        `japiProcessMessage_eq`
    the handler is given the arguments of the request, and
    `{}` to write to, apart from the response around it       `handlerCall_spec`
-/
import Libjapi.JsonTrees
import Libjapi.ProcessMessage

namespace Libjapi

open CStr (lit)

/-! ## The call -/

/-- A call of a handler: what there was around it, and what it left. -/
structure HandlerCall where
  reqName : CStr
  func : Handler
  jreq : JPtr
  jresp : JPtr
  jargs : JPtr
  jrespData : JPtr
  heap : JHeap
  served : Served

/-- The call `japi_process_message` makes for a request, if it makes one. -/
def handlerCall (P : Program) (mem : Mem) (ctx : JapiContext) (h : JHeap) (request : CStr)
    (socket : Int) : Option HandlerCall :=
  let jreq := (jsonTokenerParse P.json h request).1
  let h := (jsonTokenerParse P.json h request).2
  let jresp := (h.alloc (.object [])).1
  let h := (h.alloc (.object [])).2
  let jrespData := (h.alloc (.object [])).1
  let h := (h.alloc (.object [])).2
  let name := japiGetValueAsStr P.json h jreq (some (lit "japi_request")) none
  if name.1 = 0 then
    let reqName := name.2.getD (lit "")
    Except.toOption do
      let args ← requestArgs ctx h jreq jresp reqName
      let h ← addSocket args.2 args.1 reqName socket
      match dispatch ctx reqName with
      | none => throw .nullHandler
      | some func => do
          let served ← callHandler P mem.addClient ctx h args.1 jrespData func
          pure ⟨reqName, func, jreq, jresp, args.1, jrespData, h, served⟩
  else none

/-- **`japi_process_message` makes that call and finishes the response**; where
there is no call it changes nothing of the context, if it returns. -/
theorem japiProcessMessage_eq (P : Program) (mem : Mem) (stale : Option CStr) (ctx : JapiContext)
    (h : JHeap) (request : CStr) {socket : Int} (hs : 0 ≤ socket) :
    match handlerCall P mem ctx h request socket with
    | some c => japiProcessMessage P mem stale ctx h request socket =
        finish P mem.ndstr c.served c.jreq c.jresp c.jrespData [c.func]
    | none => ∀ out, japiProcessMessage P mem stale ctx h request socket = .ok out →
        out.ctx = ctx ∧ out.called = [] ∧ out.joined = none := by
  cases hparse : P.json.parse request with
  | none =>
      have hcall : handlerCall P mem ctx h request socket = none := by
        simp only [handlerCall, jsonTokenerParse, hparse, japiGetValueAsStr]
        rfl
      rw [hcall, japiProcessMessage_no_json P mem stale ctx h hs hparse]
      rintro out ⟨⟩
      exact ⟨rfl, rfl, rfl⟩
  | some j =>
      obtain ⟨-, hd⟩ := jsonTokenerParse_spec hparse h
      have hd' := (hd.mono (JHeap.extends_alloc _ (.object []))).mono
        (JHeap.extends_alloc _ (.object []))
      cases hname : requestName j with
      | none =>
          have hcall : handlerCall P mem ctx h request socket = none := by
            by_cases hreq : (jsonTokenerParse P.json h request).1 = none
            · simp only [handlerCall, hreq, japiGetValueAsStr]
              rfl
            · have hval := japiGetValueAsStr_spec P.json hd' hreq none
              rw [hname] at hval
              simp only [handlerCall, hval.1, if_false]
          rw [hcall]
          intro out hout
          exact japiProcessMessage_unnamed hout (by rw [hparse]; exact hname)
      | some name =>
          have hreq : (jsonTokenerParse P.json h request).1 ≠ none := by
            intro hnone
            have htype := hd.typeOf
            rw [hnone, type_of_requestName hname] at htype
            cases htype
          have hval := fun val => japiGetValueAsStr_spec P.json hd' hreq val
          simp only [hname] at hval
          simp only [handlerCall, japiProcessMessage, hs.not_gt, if_false, hreq, hval, if_true,
            Option.getD_some, bind, Except.bind]
          -- each step up to the end of the call may abort the process
          cases requestArgs ctx _ (jsonTokenerParse P.json h request).1 _ name with
          | error e => rintro out ⟨⟩
          | ok args =>
              dsimp only
              cases addSocket args.2 args.1 name socket with
              | error e => rintro out ⟨⟩
              | ok h₁ =>
                  dsimp only
                  cases dispatch ctx name with
                  | none => rintro out ⟨⟩
                  | some func =>
                      dsimp only
                      cases callHandler P mem.addClient ctx h₁ args.1 _ func with
                      | error e => rintro out ⟨⟩
                      | ok served => rfl

/-! ## The response around it -/

/-- The members of a response up to `data`. -/
def envelope {α : Type} (response : α) (requestNo args : Option α) : List (CStr × α) :=
  (lit "japi_response", response) ::
    ((requestNo.map (lit "japi_request_no", ·)).toList ++ (args.map (lit "args", ·)).toList)

theorem envelope_denotes {h : JHeap} {p : JPtr} {no args : Option JPtr} {t : Json}
    {tno targs : Option Json} (hp : h.Denotes p t) (hno : Option.Rel h.Denotes no tno)
    (hargs : Option.Rel h.Denotes args targs) :
    h.DenotesMembers (envelope p no args) (envelope t tno targs) := by
  refine ⟨rfl, hp, ?_⟩
  cases hno with
  | none =>
      cases hargs with
      | none => trivial
      | some ha => exact ⟨rfl, ha, trivial⟩
  | some hn =>
      cases hargs with
      | none => exact ⟨rfl, hn, trivial⟩
      | some ha => exact ⟨rfl, hn, rfl, ha, trivial⟩

theorem mem_envelope {q p : JPtr} {no args : Option JPtr}
    (hq : q ∈ (JNode.object (envelope p no args)).children) :
    q = p ∨ no = some q ∨ args = some q := by
  simpa [JNode.children, envelope, Option.map_eq_some_iff, or_assoc] using hq

/-- Every object outside `S` has the node it had. -/
def JHeap.KeepsOff (S : Set Ref) (h h' : JHeap) : Prop :=
  ∀ r n, r ∉ S → h.node? r = some n → h'.node? r = some n

theorem JHeap.KeepsOff.sameBelow {S : Set Ref} {h h' : JHeap} (hk : KeepsOff S h h') {p : JPtr}
    {j : Json} (hd : h.Denotes p j) (hp : ∀ r, h.Reach p r → r ∉ S) : h.SameBelow h' p := by
  intro r hr
  obtain ⟨n, hn⟩ := hd.reach_node hr
  rw [hn, hk r n (hp r hr) hn]

theorem objectAdd_append {h : JHeap} {r : Ref} {ps : List (CStr × JPtr)}
    (hr : h.node? r = some (.object ps)) (key : CStr) (hkey : ∀ m ∈ ps, m.1 ≠ key) (val : JPtr) :
    ∃ h', h.objectAdd (some r) key val = .ok h' ∧
      h'.node? r = some (.object (ps ++ [(key, val)])) ∧ ∀ r', r' ≠ r → h'.node? r' = h.node? r' := by
  have hset : JHeap.setMember key val ps = ps ++ [(key, val)] := by
    clear hr
    induction ps with
    | nil => rfl
    | cons m ps ih =>
        obtain ⟨hm, hps⟩ := List.forall_mem_cons.mp hkey
        simp only [JHeap.setMember, if_neg hm, ih hps, List.cons_append]
  obtain ⟨h', hadd, hself, hother, -⟩ := JHeap.objectAdd_object hr key val
  exact ⟨h', hadd, hset ▸ hself, hother⟩

theorem addRequestNo_envelope {h : JHeap} {req resp : Ref} {ps : List (CStr × JPtr)}
    (hreq : h.node? req = some (.object ps)) (name : JPtr)
    (hresp : h.node? resp = some (.object [(lit "japi_response", name)])) :
    ∃ h', addRequestNo h (some req) (some resp) = .ok h' ∧
      h'.node? resp = some (.object (envelope name (ps.lookup (lit "japi_request_no")) none)) ∧
      ∀ r, r ≠ resp → h'.node? r = h.node? r := by
  have hget : h.getEx (some req) (lit "japi_request_no") = ps.lookup (lit "japi_request_no") := by
    simp only [JHeap.getEx, Option.bind_some, hreq]
  unfold addRequestNo
  rw [hget]
  cases ps.lookup (lit "japi_request_no") with
  | none => exact ⟨h, rfl, hresp, fun _ _ => rfl⟩
  | some q =>
      obtain ⟨h', hadd, hself, hother⟩ := objectAdd_append ((JHeap.node?_get h q resp).trans hresp)
        (lit "japi_request_no")
        (by simp only [List.mem_singleton, forall_eq]; decide) q
      exact ⟨h', hadd, hself, fun r hr => (hother r hr).trans (JHeap.node?_get h q r)⟩

/-- **The envelope is written**: the name in a new string, the request number and
the arguments as the pointers the request has. -/
theorem requestArgs_envelope (ctx : JapiContext) {h : JHeap} {req resp : Ref}
    {ps : List (CStr × JPtr)} (hreq : h.node? req = some (.object ps))
    (hresp : h.node? resp = some (.object [])) (hne : resp ≠ req) (reqName : CStr) :
    ∃ h', requestArgs ctx h (some req) (some resp) reqName =
        .ok ((ps.lookup (lit "args")).join, h') ∧
      JHeap.KeepsOff {req, resp} h h' ∧
      h'.node? h.cells.length = some (.string reqName.bytes) ∧
      h'.node? resp = some (.object (envelope (some h.cells.length)
        (ps.lookup (lit "japi_request_no"))
        (if ctx.includeArgsInResponse then ps.lookup (lit "args") else none))) := by
  have hnew : h.cells.length ≠ resp := (JHeap.node?_lt hresp).ne'
  have hnew' : h.cells.length ≠ req := (JHeap.node?_lt hreq).ne'
  -- the name
  obtain ⟨h₁, hadd₁, hself₁, hother₁⟩ := objectAdd_append
    (JHeap.extends_alloc h (.string reqName.bytes) _ _ hresp) (lit "japi_response")
    (by simp) (h.alloc (.string reqName.bytes)).1
  have hreq₁ : h₁.node? req = some (.object ps) :=
    (hother₁ req hne.symm).trans (JHeap.extends_alloc h _ _ _ hreq)
  have hname₁ := (hother₁ _ hnew).trans (JHeap.node?_alloc h (.string reqName.bytes))
  -- the request number
  obtain ⟨h₂, hadd₂, hself₂, hother₂⟩ := addRequestNo_envelope hreq₁ (some h.cells.length) hself₁
  have hreq₂ : h₂.node? req = some (.object ps) := (hother₂ req hne.symm).trans hreq₁
  have hargs₂ : h₂.getEx (some req) (lit "args") = ps.lookup (lit "args") := by
    simp only [JHeap.getEx, Option.bind_some, hreq₂]
  have hkeeps₂ : ∀ r, r ≠ resp → ∀ n, h.node? r = some n → h₂.node? r = some n := by
    intro r hr n hn
    rw [hother₂ r hr, hother₁ r hr]
    exact JHeap.extends_alloc h _ r n hn
  -- the arguments
  simp only [requestArgs, JHeap.objectAddNew, hadd₁, hadd₂, hargs₂, bind, Except.bind]
  cases hlook : ps.lookup (lit "args") with
  | none =>
      obtain ⟨h₃, hadd₃, hself₃, hother₃, -⟩ := JHeap.objectAdd_object hreq₂ (lit "args") none
      have hget₃ : h₃.getEx (some req) (lit "args") = some none := by
        simp only [JHeap.getEx, Option.bind_some, hself₃]
        exact JHeap.lookup_setMember_self _ _ _
      refine ⟨h₃, by simp only [hadd₃, hget₃, pure, Except.pure]; rfl, ?_, ?_, ?_⟩
      · intro r n hr hn
        simp only [Set.mem_insert_iff, Set.mem_singleton_iff, not_or] at hr
        rw [hother₃ r hr.1]
        exact hkeeps₂ r hr.2 n hn
      · rw [hother₃ _ hnew', hother₂ _ hnew, hname₁]
      · rw [hother₃ _ hne, hself₂, ite_self]
  | some q =>
      have hkeep : JHeap.KeepsOff {req, resp} h h₂ := by
        intro r n hr hn
        simp only [Set.mem_insert_iff, Set.mem_singleton_iff, not_or] at hr
        exact hkeeps₂ r hr.2 n hn
      by_cases hinc : ctx.includeArgsInResponse = true
      · obtain ⟨h₃, hadd₃, hself₃, hother₃⟩ := objectAdd_append
          ((JHeap.node?_get h₂ q resp).trans hself₂) (lit "args") (by
            intro m hm
            simp only [envelope, Option.map_none, Option.toList_none, List.append_nil,
              List.mem_cons, Option.mem_toList, Option.map_eq_some_iff] at hm
            rcases hm with rfl | ⟨_, -, rfl⟩
            · show lit "japi_response" ≠ lit "args"
              decide
            · show lit "japi_request_no" ≠ lit "args"
              decide) q
        refine ⟨h₃, by simp only [hinc, if_true, hadd₃, pure, Except.pure]; rfl, ?_, ?_, ?_⟩
        · intro r n hr hn
          have hr' := hr
          simp only [Set.mem_insert_iff, Set.mem_singleton_iff, not_or] at hr'
          rw [hother₃ r hr'.2, JHeap.node?_get]
          exact hkeep r n hr hn
        · rw [hother₃ _ hnew, JHeap.node?_get, hother₂ _ hnew, hname₁]
        · rw [hself₃, hinc]
          simp only [envelope, Option.map_none, Option.toList_none, List.append_nil, if_true,
            Option.map_some, Option.toList_some, List.cons_append]
      · refine ⟨h₂, by simp only [hinc, pure, Except.pure]; rfl, hkeep, ?_, ?_⟩
        · rw [hother₂ _ hnew, hname₁]
        · rw [hself₂, if_neg hinc]

/-! ## What the handler is given -/

/-- The socket among the arguments, for the requests that need it. -/
def withSocket (name : CStr) (socket : Int) : Json → Json
  | .object ms =>
      .object (if needsSocket name then Json.setMember (lit "socket") (.int socket) ms else ms)
  | args => args

theorem addSocket_denotes {h : JHeap} {jargs : JPtr} {args : Json} (hd : h.Denotes jargs args)
    {name : CStr} (hobj : needsSocket name → args.type = .object) (socket : Int) :
    ∃ h', addSocket h jargs name socket = .ok h' ∧ h'.Denotes jargs (withSocket name socket args) ∧
      JHeap.KeepsOff {r | jargs = some r ∧ needsSocket name} h h' ∧
      ∀ r, h'.Reach jargs r → h.Reach jargs r ∨ h.cells.length ≤ r := by
  by_cases hneeds : needsSocket name
  · obtain ⟨r, ms, rfl, rfl⟩ : ∃ r ms, jargs = some r ∧ args = .object ms := by
      cases args with
      | object ms =>
          cases jargs with
          | none => exact hd.elim
          | some r => exact ⟨r, ms, rfl, rfl⟩
      | _ => exact absurd (hobj hneeds) (by simp [Json.type])
    have hw : JHeap.Written (h.Reach (some r)) r h h ms :=
      ⟨JHeap.ChangesOnly.refl _ _, hd, fun r' hr' => .inr (.inr hr')⟩
    obtain ⟨h', hadd, hw'⟩ := hw.objectAddNew (n := .int socket) (v := .int socket)
      (JHeap.node?_alloc h _) rfl (lit "socket")
    refine ⟨h', by simp only [addSocket, if_pos hneeds, hadd], ?_, ?_, ?_⟩
    · simpa only [withSocket, if_pos hneeds] using hw'.denotes
    · intro r' n hr' hn
      refine hw'.changes.others r' n ?_ hn
      rintro ⟨⟩
      exact hr' ⟨rfl, hneeds⟩
    · intro r' hr'
      rcases hw'.reach r' hr' with rfl | hnew | hold
      · exact .inl .here
      · exact .inr hnew
      · exact .inl hold
  · refine ⟨h, by simp only [addSocket, if_neg hneeds, pure, Except.pure], ?_, fun _ _ _ hn => hn,
      fun _ hr => .inl hr⟩
    cases args with
    | object ms => simpa only [withSocket, if_neg hneeds] using hd
    | _ => exact hd

/-- The parsed request and the two new objects, before the response is written. -/
structure Prepared (h : JHeap) (req resp respData : Ref) (ps : List (CStr × JPtr))
    (ms : List (CStr × Json)) : Prop where
  request : h.node? req = some (.object ps)
  members : h.DenotesMembers ps ms
  response : h.node? resp = some (.object [])
  data : h.node? respData = some (.object [])
  order : req < resp ∧ resp < respData
  below : ∀ q ∈ ps.map Prod.snd, ∀ r, h.Reach q r → r < resp ∧ r ≠ req
  apart : ∀ k k' q q', k ≠ k' → ps.lookup k = some q → ps.lookup k' = some q' → h.Apart q q'

theorem prepared_of_parse {J : JsonC} {request : CStr} {ms : List (CStr × Json)}
    (hparse : J.parse request = some (.object ms)) (h : JHeap) :
    ∃ req ps, (jsonTokenerParse J h request).1 = some req ∧
      h.cells.length ≤ (jsonTokenerParse J h request).2.cells.length ∧
      Prepared (((jsonTokenerParse J h request).2.alloc (.object [])).2.alloc (.object [])).2 req
        (jsonTokenerParse J h request).2.cells.length
        ((jsonTokenerParse J h request).2.cells.length + 1) ps ms := by
  obtain ⟨hext, hd⟩ := jsonTokenerParse_spec hparse h
  have happart : ∀ k k' q q', k ≠ k' →
      (jsonTokenerParse J h request).2.getEx (jsonTokenerParse J h request).1 k = some q →
      (jsonTokenerParse J h request).2.getEx (jsonTokenerParse J h request).1 k' = some q' →
      (jsonTokenerParse J h request).2.Apart q q' := by
    intro k k' q q' hne hq hq'
    simp only [jsonTokenerParse, hparse] at hq hq' ⊢
    exact JHeap.build_apart h hne hq hq'
  have hlen := hext.keepsTypes.length_le
  cases hjreq : (jsonTokenerParse J h request).1 with
  | none =>
      rw [hjreq] at hd
      exact hd.elim
  | some req =>
      rw [hjreq] at hd happart
      obtain ⟨ps, hn, hds⟩ := id hd
      simp only [JHeap.getEx, Option.bind_some, hn] at happart
      generalize hh : (jsonTokenerParse J h request).2 = h₁ at *
      have hext₁ := JHeap.extends_alloc h₁ (.object [])
      have hext₂ := JHeap.extends_alloc (h₁.alloc (.object [])).2 (.object [])
      have hext := hext₁.trans hext₂
      have hlen₁ : (h₁.alloc (.object [])).2.cells.length = h₁.cells.length + 1 := by
        simp [JHeap.alloc]
      -- the members were all there before the new objects
      have hsame : ∀ q ∈ ps.map Prod.snd, ∀ r,
          ((h₁.alloc (.object [])).2.alloc (.object [])).2.Reach q r → h₁.Reach q r := by
        intro q hq r hr
        obtain ⟨m, -, hdm⟩ := hds.mem hq
        exact (hext.sameBelow hdm).reach hr
      have hmem : ∀ {k q}, ps.lookup k = some q → q ∈ ps.map Prod.snd := fun hlook =>
        List.mem_map_of_mem (f := Prod.snd) (JHeap.mem_of_lookup hlook)
      refine ⟨req, ps, rfl, hlen, ⟨hext _ _ hn, ?_, hext₂ _ _ (JHeap.node?_alloc h₁ _), ?_,
        ⟨JHeap.node?_lt hn, Nat.lt_succ_self _⟩, ?_, ?_⟩⟩
      · exact hds.mono hext
      · have := JHeap.node?_alloc (h₁.alloc (.object [])).2 (.object [])
        rwa [hlen₁] at this
      · intro q hq r hr
        obtain ⟨m, -, hdm⟩ := hds.mem hq
        obtain ⟨n', hn'⟩ := hdm.reach_node (hsame q hq r hr)
        refine ⟨JHeap.node?_lt hn', ?_⟩
        rintro rfl
        exact hd.not_reach_root hn hq (hsame q hq _ hr)
      · intro k k' q q' hne hq hq' r hr hr'
        exact happart k k' q q' hne hq hq' r (hsame q (hmem hq) r hr) (hsame q' (hmem hq') r hr')

theorem JHeap.DenotesMembers.lookup_rel {h : JHeap} {ps : List (CStr × JPtr)}
    {ms : List (CStr × Json)} (hds : h.DenotesMembers ps ms) (key : CStr) :
    Option.Rel h.Denotes (ps.lookup key) (ms.lookup key) := by
  have hlook := hds.lookup key
  cases hms : ms.lookup key with
  | none =>
      rw [hms] at hlook
      rw [hlook]
      exact .none
  | some v =>
      rw [hms] at hlook
      obtain ⟨q, hq, hd⟩ := hlook
      rw [hq]
      exact .some hd

theorem denotes_join {h : JHeap} {q : Option JPtr} {v : Option Json}
    (hrel : Option.Rel h.Denotes q v) : h.Denotes q.join (v.getD .null) := by
  cases hrel with
  | none => trivial
  | some hd => exact hd

theorem rel_map_of_join {h h' : JHeap} {q : Option JPtr} {v : Option Json} {f : Json → Json}
    (hrel : Option.Rel h.Denotes q v) (hd : h'.Denotes q.join (f (v.getD .null))) :
    Option.Rel h'.Denotes q (v.map f) := by
  cases hrel with
  | none => exact .none
  | some _ => exact .some hd

theorem rel_imp {α β : Type} {R S : α → β → Prop} {a : Option α} {b : Option β}
    (hrel : Option.Rel R a b) (himp : ∀ x y, a = some x → b = some y → R x y → S x y) :
    Option.Rel S a b := by
  cases hrel with
  | none => exact .none
  | some h => exact .some (himp _ _ rfl rfl h)

/-- The request number and the arguments of a request. -/
def requestNo (j : Json) : Option Json := j.member? (lit "japi_request_no")

def requestArguments (j : Json) : Option Json := j.member? (lit "args")

theorem argsType_eq (j : Json) : argsType j = ((requestArguments j).getD .null).type := by
  unfold argsType requestArguments
  cases j.member? (lit "args") <;> rfl

/-- **The handler is given the arguments and an empty object**, and the response
around it, which it does not reach, is the envelope. -/
structure HandlerCall.Given (c : HandlerCall) (h : JHeap) (resp respData : Ref) (j : Json)
    (name : CStr) (socket : Int) (includeArgs : Bool) : Prop where
  jresp : c.jresp = some resp
  jrespData : c.jrespData = some respData
  fresh : h.cells.length ≤ resp
  args : c.heap.Denotes c.jargs (withSocket name socket ((requestArguments j).getD .null))
  data : c.heap.Denotes (some respData) (.object [])
  response : c.heap.Denotes (some resp) (.object (envelope (.string name.bytes) (requestNo j)
    (if includeArgs then (requestArguments j).map (withSocket name socket) else none)))
  args_resp : ¬ c.heap.Reach c.jargs resp
  args_data : ¬ c.heap.Reach c.jargs respData
  resp_data : ¬ c.heap.Reach (some resp) respData

/-- From the prepared objects to the call: the envelope is written, the socket is
added, and neither touches the other. -/
theorem Prepared.given {h : JHeap} {req resp respData : Ref} {ps : List (CStr × JPtr)}
    {ms : List (CStr × Json)} (hp : Prepared h req resp respData ps ms) (ctx : JapiContext)
    {name : CStr} (hobj : needsSocket name → argsType (.object ms) = .object) (socket : Int) :
    ∃ jargs h₁ h₂, requestArgs ctx h (some req) (some resp) name = .ok (jargs, h₁) ∧
      addSocket h₁ jargs name socket = .ok h₂ ∧
      h₂.Denotes jargs (withSocket name socket ((requestArguments (.object ms)).getD .null)) ∧
      h₂.Denotes (some respData) (.object []) ∧
      h₂.Denotes (some resp) (.object (envelope (.string name.bytes) (requestNo (.object ms))
        (if ctx.includeArgsInResponse then
          (requestArguments (.object ms)).map (withSocket name socket) else none))) ∧
      ¬ h₂.Reach jargs resp ∧ ¬ h₂.Reach jargs respData ∧ ¬ h₂.Reach (some resp) respData := by
  obtain ⟨h₁, hargs, hkeep, hname₁, hresp₁⟩ :=
    requestArgs_envelope ctx hp.request hp.response hp.order.1.ne' name
  have hlen₁ : h.cells.length ≤ h₁.cells.length := (JHeap.node?_lt hname₁).le
  have hdata_lt : respData < h.cells.length := JHeap.node?_lt hp.data
  -- the members of the request are as they were
  have hsame : ∀ q ∈ ps.map Prod.snd, h.SameBelow h₁ q := by
    intro q hq
    obtain ⟨m, -, hd⟩ := hp.members.mem hq
    refine hkeep.sameBelow hd ?_
    intro r hr hS
    obtain ⟨hlt, hne⟩ := hp.below q hq r hr
    rcases hS with rfl | rfl
    · exact hne rfl
    · exact lt_irrefl _ hlt
  have hmem : ∀ {k q}, ps.lookup k = some q → q ∈ ps.map Prod.snd := fun hlook =>
    List.mem_map_of_mem (f := Prod.snd) (JHeap.mem_of_lookup hlook)
  have hds₁ : h₁.DenotesMembers ps ms := hp.members.frame hsame
  -- the arguments
  have hjargs := denotes_join (hds₁.lookup_rel (lit "args"))
  have hbelow : ∀ r, h₁.Reach (ps.lookup (lit "args")).join r → r < resp := by
    intro r hr
    cases hq : ps.lookup (lit "args") with
    | none =>
        rw [hq] at hr
        exact absurd hr JHeap.not_reach_none
    | some q =>
        rw [hq] at hr
        exact (hp.below q (hmem hq) r ((hsame q (hmem hq)).reach hr)).1
  obtain ⟨h₂, hadd, hd₂, hkeep₂, hreach₂⟩ :=
    addSocket_denotes hjargs (argsType_eq (.object ms) ▸ hobj) socket
  have hargs_lt : ∀ r, h₂.Reach (ps.lookup (lit "args")).join r → r < resp ∨ h.cells.length ≤ r :=
    fun r hr => (hreach₂ r hr).imp (hbelow r) hlen₁.trans
  -- everything but the object under `args` is as it was
  have hother : ∀ r, resp ≤ r → ∀ n, h₁.node? r = some n → h₂.node? r = some n := by
    intro r hle n hn
    refine hkeep₂ r n ?_ hn
    rintro ⟨hr, -⟩
    exact absurd (hbelow r (hr ▸ .here)) hle.not_gt
  have hname₂ := hother _ (hp.order.2.trans hdata_lt).le _ hname₁
  have hresp₂ := hother _ (le_refl _) _ hresp₁
  have hdata₂ : h₂.node? respData = some (.object []) := by
    refine hother _ hp.order.2.le _ (hkeep _ _ ?_ hp.data)
    rintro (heq | heq)
    · exact (hp.order.1.trans hp.order.2).ne' heq
    · exact hp.order.2.ne' heq
  have hno : ∀ q, ps.lookup (lit "japi_request_no") = some q → h₁.SameBelow h₂ q := by
    intro q hq
    obtain ⟨m, -, hd⟩ := hds₁.mem (hmem hq)
    refine hkeep₂.sameBelow hd ?_
    rintro r hr ⟨hargs, -⟩
    cases hqa : ps.lookup (lit "args") with
    | none =>
        rw [hqa] at hargs
        cases hargs
    | some qa =>
        rw [hqa] at hargs
        obtain rfl : qa = some r := hargs
        exact hp.apart _ _ _ _ (by decide) hq hqa r ((hsame q (hmem hq)).reach hr) .here
  refine ⟨_, h₁, h₂, hargs, hadd, hd₂, ⟨[], hdata₂, trivial⟩, ⟨_, hresp₂, ?_⟩, ?_, ?_, ?_⟩
  · refine envelope_denotes hname₂ ?_ ?_
    · exact rel_imp (hds₁.lookup_rel (lit "japi_request_no")) fun q _ hq _ hd => hd.frame (hno q hq)
    · by_cases hinc : ctx.includeArgsInResponse = true
      · rw [if_pos hinc, if_pos hinc]
        exact rel_map_of_join (hds₁.lookup_rel (lit "args")) hd₂
      · rw [if_neg hinc, if_neg hinc]
        exact .none
  · intro hr
    rcases hargs_lt resp hr with hlt | hle
    · exact lt_irrefl _ hlt
    · exact absurd (hp.order.2.trans hdata_lt) hle.not_gt
  · intro hr
    rcases hargs_lt respData hr with hlt | hle
    · exact absurd hp.order.2 hlt.asymm
    · exact absurd hdata_lt hle.not_gt
  · intro hr
    rcases (JHeap.reach_some hresp₂).mp hr with heq | ⟨q, hq, hr⟩
    · exact hp.order.2.ne' heq
    · rcases mem_envelope hq with rfl | hq | hq
      · rcases (JHeap.reach_some hname₂).mp hr with heq | ⟨q, hq, -⟩
        · exact hdata_lt.ne heq
        · exact absurd hq List.not_mem_nil
      · have hr₁ := (hsame q (hmem hq)).reach ((hno q hq).reach hr)
        exact absurd hp.order.2 (hp.below q (hmem hq) _ hr₁).1.asymm
      · have hjoin : (ps.lookup (lit "args")).join = q := by
          split at hq
          · rw [hq]
            rfl
          · cases hq
        rcases hargs_lt respData (hjoin ▸ hr) with hlt | hle
        · exact absurd hp.order.2 hlt.asymm
        · exact absurd hdata_lt hle.not_gt

/-- **The call of a request with a name.** -/
theorem handlerCall_spec (P : Program) (mem : Mem) (ctx : JapiContext) (h : JHeap)
    {request : CStr} {j : Json} (hparse : P.json.parse request = some j) {name : CStr}
    (hname : requestName j = some name) (hobj : needsSocket name → argsType j = .object)
    {func : Handler} (hfunc : dispatch ctx name = some func) (socket : Int) :
    ∃ c resp respData, handlerCall P mem ctx h request socket = some c ∧ c.reqName = name ∧
      c.func = func ∧
      callHandler P mem.addClient ctx c.heap c.jargs c.jrespData c.func = .ok c.served ∧
      c.Given h resp respData j name socket ctx.includeArgsInResponse := by
  obtain ⟨ms, rfl⟩ : ∃ ms, j = .object ms := by
    cases j with
    | object ms => exact ⟨ms, rfl⟩
    | _ => cases hname
  obtain ⟨req, ps, hjreq, hlen, hp⟩ := prepared_of_parse hparse h
  obtain ⟨jargs, h₁, h₂, hargs, hadd, hdargs, hddata, hdresp, hno₁, hno₂, hno₃⟩ :=
    hp.given ctx hobj socket
  have htype : h₂.typeOf (some ((jsonTokenerParse P.json h request).2.cells.length + 1)) = .object :=
    hddata.typeOf
  obtain ⟨served, hserved, -⟩ := callHandler_ok P mem.addClient ctx jargs htype func
  have hdreq : JHeap.Denotes _ (some req) (.object ms) := ⟨ps, hp.request, hp.members⟩
  have hval := japiGetValueAsStr_spec P.json hdreq (by simp) none
  rw [hname] at hval
  have hdata : (((jsonTokenerParse P.json h request).2.alloc (.object [])).2.alloc
      (.object [])).1 = some ((jsonTokenerParse P.json h request).2.cells.length + 1) := by
    simp [JHeap.alloc]
  have hresp : ((jsonTokenerParse P.json h request).2.alloc (.object [])).1
      = some (jsonTokenerParse P.json h request).2.cells.length := rfl
  refine ⟨⟨name, func, some req, _, jargs, _, h₂, served⟩, _, _, ?_, rfl, rfl, hserved,
    ⟨rfl, rfl, hlen, hdargs, hddata, hdresp, hno₁, hno₂, hno₃⟩⟩
  simp only [handlerCall, hjreq, hval, if_true, Option.getD_some, hresp, hdata, hargs, hadd, hfunc,
    hserved, bind, Except.bind, pure, Except.pure]
  rfl

/-! ## A request that was processed -/

theorem finish_eq_ok {P : Program} {malloc : Bool} {served : Served} {jreq jresp jrespData : JPtr}
    {called : List Handler} {out : Outcome}
    (hout : finish P malloc served jreq jresp jrespData called = .ok out) :
    out.ctx = served.ctx ∧ out.called = called := by
  simp only [finish, bind, Except.bind] at hout
  split at hout
  · cases hout
  · cases hout
    exact ⟨rfl, rfl⟩

/-- **A request that was processed** made no call and left the context as it was,
or made the call of its name. -/
theorem handlerCall_of_ok {P : Program} {mem : Mem} {stale : Option CStr} {ctx : JapiContext}
    {h : JHeap} {request : CStr} {socket : Int} {out : Outcome}
    (hout : japiProcessMessage P mem stale ctx h request socket = .ok out) :
    ((P.json.parse request).bind requestName = none ∧
        handlerCall P mem ctx h request socket = none ∧ out.ctx = ctx) ∨
      ∃ j name c resp respData, P.json.parse request = some j ∧ requestName j = some name ∧
        (needsSocket name → argsType j = .object) ∧ dispatch ctx name = some c.func ∧
        handlerCall P mem ctx h request socket = some c ∧
        callHandler P mem.addClient ctx c.heap c.jargs c.jrespData c.func = .ok c.served ∧
        c.Given h resp respData j name socket ctx.includeArgsInResponse ∧
        out.ctx = c.served.ctx ∧ out.called = [c.func] := by
  have hs := japiProcessMessage_socket hout
  have heq := japiProcessMessage_eq P mem stale ctx h request hs
  cases hnamed : (P.json.parse request).bind requestName with
  | none =>
      obtain ⟨hctx, hcalled, -⟩ := japiProcessMessage_unnamed hout hnamed
      cases hcall : handlerCall P mem ctx h request socket with
      | none => exact .inl ⟨rfl, rfl, hctx⟩
      | some c =>
          rw [hcall] at heq
          have hone := (finish_eq_ok (heq ▸ hout)).2
          rw [hcalled] at hone
          cases hone
  | some name =>
      obtain ⟨j, hparse, hname⟩ := Option.bind_eq_some_iff.mp hnamed
      have hobj : needsSocket name → argsType j = .object :=
        japiProcessMessage_object hout hparse hname
      obtain ⟨func, hfunc⟩ := japiProcessMessage_dispatch hout hparse hname
      obtain ⟨c, resp, respData, hcall, -, rfl, hserved, hgiven⟩ :=
        handlerCall_spec P mem ctx h hparse hname hobj hfunc socket
      rw [hcall] at heq
      obtain ⟨hctx, hcalled⟩ := finish_eq_ok (heq ▸ hout)
      exact .inr ⟨j, name, c, resp, respData, hparse, hname, hobj, hfunc, hcall, hserved, hgiven,
        hctx, hcalled⟩

/-! ## Reading the arguments -/

/-- What `json_object_get_string` gives for a tree. -/
def Json.asString (J : JsonC) : Json → Option CStr
  | .null => none
  | .string s => some (CStr.ofBytes s)
  | j => some (J.toJsonString j)

theorem JHeap.Denotes.getString (J : JsonC) {h : JHeap} {p : JPtr} {j : Json}
    (hd : h.Denotes p j) : h.getString J p = j.asString J := by
  cases p with
  | none =>
      cases j with
      | null => rfl
      | _ => exact hd.elim
  | some r =>
      have hread := hd.read
      cases j with
      | null => exact hd.elim
      | array es =>
          obtain ⟨ps, hn, -⟩ := hd
          simp only [JHeap.getString, hn, hread, Json.asString]
      | object ms =>
          obtain ⟨ps, hn, -⟩ := hd
          simp only [JHeap.getString, hn, hread, Json.asString]
      | _ =>
          simp only [JHeap.Denotes] at hd
          simp only [JHeap.getString, hd, hread, Json.asString]

/-- The service a request names. -/
def serviceNamed (J : JsonC) (j : Json) : Option CStr :=
  (((requestArguments j).bind fun args => args.member? (lit "service")).bind (Json.asString J))

theorem Json.lookup_setMember_ne {key key' : CStr} (hne : key' ≠ key) (val : Json)
    (ms : List (CStr × Json)) : (Json.setMember key val ms).lookup key' = ms.lookup key' := by
  have hbeq : (key' == key) = false := by simpa using hne
  induction ms with
  | nil => simp [Json.setMember, List.lookup_cons, hbeq]
  | cons m ms ih =>
      obtain ⟨k, v⟩ := m
      simp only [Json.setMember]
      split
      · rename_i hk
        simp [List.lookup_cons, hk, hbeq]
      · simp only [List.lookup_cons, ih]

theorem Json.lookup_setMember_self (key : CStr) (val : Json) (ms : List (CStr × Json)) :
    (Json.setMember key val ms).lookup key = some val := by
  induction ms with
  | nil => simp [Json.setMember]
  | cons m ms ih =>
      obtain ⟨k, v⟩ := m
      simp only [Json.setMember]
      split
      · rename_i hk
        simp [hk]
      · rename_i hk
        have : (key == k) = false := by simpa using fun h => hk h.symm
        simp [List.lookup_cons, this, ih]

theorem HandlerCall.Given.service {J : JsonC} {c : HandlerCall} {h : JHeap} {resp respData : Ref}
    {j : Json} {name : CStr} {socket : Int} {includeArgs : Bool}
    (hg : c.Given h resp respData j name socket includeArgs) :
    serviceNamed J j = (c.heap.getEx c.jargs (lit "service")).join.bind
      fun service => c.heap.getString J (some service) := by
  have hget := hg.args.getEx (lit "service")
  have hmember : (withSocket name socket ((requestArguments j).getD .null)).member? (lit "service")
      = (requestArguments j).bind fun args => args.member? (lit "service") := by
    cases requestArguments j with
    | none => rfl
    | some args =>
        cases args with
        | object ms =>
            simp only [Option.getD_some, withSocket, Json.member?, Option.bind_some]
            split
            · exact Json.lookup_setMember_ne (by decide) _ ms
            · rfl
        | _ => rfl
  rw [hmember] at hget
  unfold serviceNamed
  cases hargs : (requestArguments j).bind fun args => args.member? (lit "service") with
  | none =>
      rw [hargs] at hget
      rw [hget]
      rfl
  | some v =>
      rw [hargs] at hget
      obtain ⟨q, hq, hd⟩ := hget
      rw [hq]
      cases q with
      | none =>
          cases v with
          | null => rfl
          | _ => exact hd.elim
      | some r => exact (hd.getString J).symm

theorem HandlerCall.Given.socket {J : JsonC} {c : HandlerCall} {h : JHeap} {resp respData : Ref}
    {j : Json} {name : CStr} {socket : Int} {includeArgs : Bool}
    (hg : c.Given h resp respData j name socket includeArgs) (hneeds : needsSocket name)
    (hobj : argsType j = .object) (hs : 0 ≤ socket) (hs' : socket < 2 ^ 31) :
    c.heap.getEx c.jargs (lit "socket") ≠ none ∧
      c.heap.getInt J (c.heap.getEx c.jargs (lit "socket")).join = socket := by
  have hget := hg.args.getEx (lit "socket")
  obtain ⟨ms, hargs⟩ : ∃ ms, (requestArguments j).getD .null = .object ms := by
    rw [argsType_eq] at hobj
    cases hj : (requestArguments j).getD .null with
    | object ms => exact ⟨ms, rfl⟩
    | _ => rw [hj] at hobj; cases hobj
  rw [hargs, withSocket, if_pos hneeds, Json.member?, Json.lookup_setMember_self] at hget
  obtain ⟨q, hq, hd⟩ := hget
  cases q with
  | none => exact hd.elim
  | some r =>
      have hn : c.heap.node? r = some (.int socket) := hd
      rw [hq]
      refine ⟨by simp, ?_⟩
      simp only [Option.join_some, JHeap.getInt, hn]
      omega

end Libjapi
