/-
# `Libjapi.Subscriptions` — the subscribers of all services are connected clients

The server as a machine whose steps are whole calls, in any order: a service is
registered, a client connects, sends a request, a service sends a message, a
client is removed.  A socket number is given again by the kernel once its client
is removed, so each connection has a number of its own (`conn`), and the state
keeps with these numbers who joined which service (`joined`) and whom the last
message was written to (`sent`).  The code reads none of this.

    every list holds connected sockets only, a removed socket is in no
    list, and a message is written to connections that joined, in every
    state of a run exactly if no client is removed that is in a list twice
                                                             `run_subscribers_iff`

`japi_pushsrv_subscribe` adds a socket that is there already once more, and
`japi_pushsrv_remove_client_from_all_pushsrv` takes it out of each list once.
-/
import Libjapi.Runs
import Libjapi.Answers

namespace Libjapi

open CStr (lit)

/-! ## What a request does to the lists -/

/-- What the handlers of the user keep: clients are connected and disconnected,
and sockets subscribed, by the library alone, and the built-in handlers are not
declared to the user. -/
structure Tame (P : Program) : Prop where
  clients : ∀ id ctx h jreq jresp, ((P.users id).run ctx h jreq jresp).1.clients = ctx.clients
  lists : ∀ id ctx h jreq jresp socket,
    ListsStep socket none ctx.pushServices ((P.users id).run ctx h jreq jresp).1.pushServices
  requests : ∀ id ctx h jreq jresp, ∀ req ∈ ((P.users id).run ctx h jreq jresp).1.requests,
    req ∈ ctx.requests ∨ ∃ id', req.func = .user id'

/-- Every request is a built-in one or has a handler of the user. -/
def Registry (ctx : JapiContext) : Prop :=
  ∀ req ∈ ctx.requests, req ∈ builtins ∨ ∃ id, req.func = .user id

/-- A handler that reads the socket from its arguments. -/
def Handler.ReadsSocket (func : Handler) : Prop :=
  func = .japiPushsrvSubscribe ∨ func = .japiPushsrvUnsubscribe

instance (func : Handler) : Decidable func.ReadsSocket := inferInstanceAs (Decidable (_ ∨ _))

theorem Registry.needsSocket_of_resolve {ctx : JapiContext} (hreg : Registry ctx) {name : CStr}
    {func : Handler} (hfunc : func.ReadsSocket) (h : japiGetRequestHandler ctx name = some func) :
    needsSocket name := by
  obtain ⟨req, hreq, hname, rfl⟩ := japiGetRequestHandler_some h
  rcases hreg req hreq with hbuiltin | ⟨id, hid⟩
  · have hall : ∀ req ∈ builtins, req.func.ReadsSocket →
        req.name = lit "japi_pushsrv_subscribe" ∨ req.name = lit "japi_pushsrv_unsubscribe" := by
      decide +kernel
    rw [needsSocket_iff]
    rcases hall req hbuiltin hfunc with heq | heq
    · exact .inl (heq ▸ hname)
    · exact .inr (heq ▸ hname)
  · rw [hid] at hfunc
    rcases hfunc with h' | h' <;> cases h'

/-- **Only a name that gets the socket is dispatched to a handler that reads it.** -/
theorem Registry.needsSocket {ctx : JapiContext} (hreg : Registry ctx) {name : CStr}
    {func : Handler} (hfunc : func.ReadsSocket) (h : dispatch ctx name = some func) :
    needsSocket name := by
  unfold dispatch at h
  cases hname : japiGetRequestHandler ctx name with
  | some func' =>
      rw [hname] at h
      cases h
      exact hreg.needsSocket_of_resolve hfunc hname
  | none =>
      rw [hname] at h
      -- neither fallback is such a name
      cases huser : japiGetRequestHandler ctx (lit "request_not_found_handler") with
      | some func' =>
          rw [huser] at h
          cases h
          exact absurd (hreg.needsSocket_of_resolve hfunc huser) (by decide +kernel)
      | none =>
          rw [huser] at h
          exact absurd (hreg.needsSocket_of_resolve hfunc h) (by decide +kernel)

theorem ListsStep.of_none {socket : Int} {old new : List JapiPushsrvContext}
    (h : ListsStep socket none old new) (socket' : Int) (joined : Option Addr) :
    ListsStep socket' joined old new := by
  intro psc hp s hs
  rcases h psc hp s hs with hold | ⟨-, hnone⟩
  · exact .inl hold
  · cases hnone

theorem callHandler_lists {P : Program} (hP : Tame P) {malloc : Bool} {ctx : JapiContext}
    (hreg : Registry ctx) {h : JHeap} {jargs jrespData : JPtr}
    (hresp : h.typeOf jrespData = .object) {func : Handler} {served : Served}
    (hcall : callHandler P malloc ctx h jargs jrespData func = .ok served) {socket : Int}
    (hsocket : func = .japiPushsrvSubscribe →
      h.getInt P.json (h.getEx jargs (lit "socket")).join = socket) :
    served.ctx.clients = ctx.clients ∧ Registry served.ctx ∧
      ListsStep socket served.joined ctx.pushServices served.ctx.pushServices := by
  cases func with
  | japiPushsrvSubscribe =>
      obtain ⟨out, heq, -, pushServices, hctx, hlists⟩ :=
        japiPushsrvSubscribe_ok P.json malloc ctx jargs hresp
      rw [callHandler, heq] at hcall
      cases hcall
      rw [hsocket rfl] at hlists
      rw [hctx]
      exact ⟨rfl, hreg, hlists⟩
  | japiPushsrvUnsubscribe =>
      obtain ⟨out, heq, -, -, pushServices, hctx, hlists⟩ :=
        japiPushsrvUnsubscribe_ok P.json ctx jargs hresp
      rw [callHandler, heq] at hcall
      cases hcall
      rw [hctx]
      exact ⟨rfl, hreg, hlists.of_none _ _⟩
  | user id =>
      cases hcall
      refine ⟨hP.clients id ctx h jargs jrespData, ?_,
        hP.lists id ctx h jargs jrespData socket⟩
      intro req hreq
      rcases hP.requests id ctx h jargs jrespData req hreq with hold | hnew
      · exact hreg req hold
      · exact .inr hnew
  | _ =>
      obtain ⟨hctx, hjoined⟩ := callHandler_sameCtx hresp (by simp) (by simp) (by simp) hcall
      rw [hctx, hjoined]
      exact ⟨rfl, hreg, ListsStep.refl _ _ _⟩

theorem getInt_socket {J : JsonC} {h : JHeap} {jargs : JPtr} {socket : Int} (hs : 0 ≤ socket)
    (hs' : socket < 2 ^ 31)
    (hget : ∃ r, h.getEx jargs (lit "socket") = some (some r) ∧ h.node? r = some (.int socket)) :
    h.getInt J (h.getEx jargs (lit "socket")).join = socket := by
  obtain ⟨r, hr, hn⟩ := hget
  simp only [hr, Option.join_some, JHeap.getInt, hn]
  omega

/-- **What a request does to the lists**: the clients stay, and an entry that is
new is the socket of the request, in the service it joined. -/
theorem japiProcessMessage_lists {P : Program} (hP : Tame P) {mem : Mem} {stale : Option CStr}
    {ctx : JapiContext} (hreg : Registry ctx) {h : JHeap} {request : CStr} {socket : Int}
    (hs : 0 ≤ socket) (hs' : socket < 2 ^ 31) {out : Outcome}
    (hout : japiProcessMessage P mem stale ctx h request socket = .ok out) :
    out.ctx.clients = ctx.clients ∧ Registry out.ctx ∧
      ListsStep socket out.joined ctx.pushServices out.ctx.pushServices := by
  rcases japiProcessMessage_ok hout with ⟨hctx, -, hjoined⟩ |
    ⟨name, func, h', jargs, jrespData, served, hfunc, hresp, hsocket, hserved, hctx, -, hjoined⟩
  · rw [hctx]
    exact ⟨rfl, hreg, ListsStep.refl _ _ _⟩
  · rw [hctx, hjoined]
    refine callHandler_lists hP hreg hresp hserved ?_
    intro hsub
    exact getInt_socket hs hs' (hsocket (hreg.needsSocket (.inl hsub) hfunc))

/-! ## The machine -/

/-- The server, between two calls. -/
structure Subscriptions where
  ctx : JapiContext
  heap : JHeap
  conn : Int → Nat
  conns : Nat
  joined : List (Nat × Addr)
  sent : List (Nat × Addr)
  removed : Option Int

/-- A call: what the kernel, the allocator and `write_n` return is part of it. -/
inductive Call where
  | register (malloc : Option Addr) (pushsrvName : Option CStr)
  | connect (socket : Int) (malloc : Option Addr)
  | request (socket : Int) (text : CStr) (mem : Mem) (stale : Option CStr)
  | sendmsg (psc : Addr) (writeN : Nat → Int)
  | disconnect (socket : Int)

namespace Subscriptions

/-- After `japi_init` and the registrations of the user. -/
def start (calls : List (Option CStr × Option Nat)) (maxClients : UInt16)
    (includeArgs : Bool) : Subscriptions where
  ctx := { registered (calls.map fun call => (call.1, call.2.map Handler.user)) with
    maxClients, includeArgsInResponse := includeArgs }
  heap := ⟨[]⟩
  conn := fun _ => 0
  conns := 0
  joined := []
  sent := []
  removed := none

/-- `accept()` and what `japi_start_server` does with the new socket. -/
def onConnect (st : Subscriptions) (socket : Int) (malloc : Option Addr) : Subscriptions :=
  { st with
    ctx := if st.ctx.admits then (japiAddClient malloc st.ctx socket).2 else st.ctx
    conn := Function.update st.conn socket st.conns
    conns := st.conns + 1
    sent := []
    removed := none }

/-- `japi_pushsrv_sendmsg` for the service. -/
def onSendmsg (st : Subscriptions) (psc : JapiPushsrvContext) (writeN : Nat → Int) :
    Subscriptions :=
  { st with
    ctx := { st.ctx with
      pushServices := st.ctx.pushServices.map fun p =>
        if p.addr = psc.addr then (japiPushsrvSendmsg writeN p).1 else p }
    sent := (japiPushsrvSendmsg writeN psc).2.2.map fun s => (st.conn s, psc.addr)
    removed := none }

/-- `japi_remove_client`. -/
def onDisconnect (st : Subscriptions) (socket : Int) : Subscriptions :=
  { st with
    ctx := (japiRemoveClient st.ctx socket).ctx
    sent := []
    removed := if (japiRemoveClient st.ctx socket).ret = 0 then some socket else none }

/-- A request was processed. -/
def onRequest (st : Subscriptions) (socket : Int) (out : Outcome) : Subscriptions :=
  { st with
    ctx := out.ctx
    heap := out.heap
    joined := (out.joined.map fun psc => (st.conn socket, psc)).toList ++ st.joined
    sent := []
    removed := none }

/-- One call.  The kernel gives no socket that a client has; a call that ends the
process has no next state. -/
def step (P : Program) (st : Subscriptions) : Call → Option Subscriptions
  | .register malloc pushsrvName =>
      if ∀ a ∈ malloc, a ∉ st.ctx.pushServices.map JapiPushsrvContext.addr then
        some { st with
          ctx := (japiPushsrvRegister malloc st.ctx pushsrvName).2, sent := [], removed := none }
      else none
  | .connect socket malloc =>
      if 0 ≤ socket ∧ socket < 2 ^ 31 ∧ socket ∉ st.ctx.sockets then
        some (st.onConnect socket malloc)
      else none
  | .request socket text mem stale =>
      if socket ∈ st.ctx.sockets then
        match japiProcessMessage P mem stale st.ctx st.heap text socket with
        | .ok out => some (st.onRequest socket out)
        | .error _ => none
      else none
  | .sendmsg psc writeN =>
      (st.ctx.pushServices.find? (·.addr = psc)).map fun p => st.onSendmsg p writeN
  | .disconnect socket => if 0 ≤ socket then some (st.onDisconnect socket) else none

/-! ## What holds -/

/-- What the lists are for: their entries are sockets of clients, a socket that
was just removed is in none, and the last message went to connections that had
joined the service. -/
structure Good (st : Subscriptions) : Prop where
  connected : ∀ psc ∈ st.ctx.pushServices, ∀ s ∈ psc.clients, s ∈ st.ctx.sockets
  removed : ∀ s ∈ st.removed, ∀ psc ∈ st.ctx.pushServices, s ∉ psc.clients
  sent : ∀ d ∈ st.sent, d ∈ st.joined

/-- The condition on a call: a client that is removed is in no list twice. -/
def Once (st : Subscriptions) : Call → Prop
  | .disconnect socket => ∀ psc ∈ st.ctx.pushServices, psc.clients.count socket ≤ 1
  | _ => True

instance (st : Subscriptions) (call : Call) : Decidable (st.Once call) :=
  match call with
  | .disconnect socket =>
      inferInstanceAs (Decidable (∀ psc ∈ st.ctx.pushServices, psc.clients.count socket ≤ 1))
  | .register .. | .connect .. | .request .. | .sendmsg .. => .isTrue trivial

/-- What carries `Good` along: the connection of every entry joined the service,
and the sockets of clients are descriptors. -/
structure Inv (st : Subscriptions) : Prop extends Good st where
  joins : ∀ psc ∈ st.ctx.pushServices, ∀ s ∈ psc.clients, (st.conn s, psc.addr) ∈ st.joined
  fds : ∀ s ∈ st.ctx.sockets, 0 ≤ s ∧ s < 2 ^ 31
  registry : Registry st.ctx

theorem registry_registerRequest {ctx : JapiContext} (hreg : Registry ctx) (malloc : Bool)
    (reqName : Option CStr) (reqHandler : Option Nat) :
    Registry (registerRequest malloc ctx reqName (reqHandler.map Handler.user)).2 := by
  rcases registerRequest_cases malloc ctx reqName (reqHandler.map Handler.user) with
    ⟨-, heq⟩ | ⟨name, func, -, hfunc, -, heq⟩
  · rw [heq]
    exact hreg
  · obtain ⟨id, -, rfl⟩ := Option.map_eq_some_iff.mp hfunc
    rw [heq]
    intro req hreq
    rcases List.mem_cons.mp hreq with rfl | hold
    · exact .inr ⟨id, rfl⟩
    · exact hreg req hold

theorem registry_registered (calls : List (Option CStr × Option Nat)) :
    Registry (registered (calls.map fun call => (call.1, call.2.map Handler.user))) := by
  induction calls using List.reverseRecOn with
  | nil =>
      intro req hreq
      have hreq' : req ∈ japiInit.requests := hreq
      rw [japiInit_requests, List.mem_reverse] at hreq'
      exact .inl hreq'
  | append_singleton calls call ih =>
      rw [List.map_append, registered_append]
      exact registry_registerRequest ih true call.1 call.2

theorem registered_empty (calls : List (Option CStr × Option Handler)) :
    (registered calls).pushServices = [] ∧ (registered calls).clients = [] := by
  induction calls using List.reverseRecOn with
  | nil => exact ⟨by decide +kernel, by decide +kernel⟩
  | append_singleton calls call ih =>
      rw [registered_append]
      simp only [List.foldl_cons, List.foldl_nil]
      rcases registerRequest_cases true (registered calls) call.1 call.2 with
        ⟨-, heq⟩ | ⟨name, func, -, -, -, heq⟩
      · rw [heq]
        exact ih
      · rw [heq]
        exact ih

theorem inv_start (calls : List (Option CStr × Option Nat)) (maxClients : UInt16)
    (includeArgs : Bool) : (start calls maxClients includeArgs).Inv := by
  obtain ⟨hservices, hclients⟩ :=
    registered_empty (calls.map fun call => (call.1, call.2.map Handler.user))
  have hservices' : (start calls maxClients includeArgs).ctx.pushServices = [] := hservices
  have hsockets : (start calls maxClients includeArgs).ctx.sockets = [] := by
    show List.map _ (registered _).clients = []
    rw [hclients]
    rfl
  refine ⟨⟨?_, ?_, ?_⟩, ?_, ?_, registry_registered calls⟩
  · rw [hservices']
    simp
  · intro s hs
    cases hs
  · intro d hd
    cases hd
  · rw [hservices']
    simp
  · rw [hsockets]
    simp

/-! ## The steps -/

theorem Inv.register {st : Subscriptions} (hi : st.Inv) (malloc : Option Addr)
    (pushsrvName : Option CStr) :
    Inv { st with
      ctx := (japiPushsrvRegister malloc st.ctx pushsrvName).2, sent := [], removed := none } := by
  rcases japiPushsrvRegister_cases malloc st.ctx pushsrvName with
    heq | ⟨addr, name, -, -, -, -, heq⟩
  · rw [heq]
    exact ⟨⟨hi.connected, by simp, by simp⟩, hi.joins, hi.fds, hi.registry⟩
  · rw [heq]
    refine ⟨⟨?_, by simp, by simp⟩, ?_, hi.fds,
      hi.registry⟩
    · intro psc hpsc s hs
      rcases List.mem_cons.mp hpsc with rfl | hold
      · cases hs
      · exact hi.connected psc hold s hs
    · intro psc hpsc s hs
      rcases List.mem_cons.mp hpsc with rfl | hold
      · cases hs
      · exact hi.joins psc hold s hs

theorem japiAddClient_cases (malloc : Option Addr) (ctx : JapiContext) (socket : Int) :
    (japiAddClient malloc ctx socket).2.pushServices = ctx.pushServices ∧
      (japiAddClient malloc ctx socket).2.requests = ctx.requests ∧
      ((japiAddClient malloc ctx socket).2.sockets = ctx.sockets ∨
        (japiAddClient malloc ctx socket).2.sockets = socket :: ctx.sockets) := by
  cases malloc with
  | none => exact ⟨rfl, rfl, .inl rfl⟩
  | some addr => exact ⟨rfl, rfl, .inr rfl⟩

theorem Inv.connect {st : Subscriptions} (hi : st.Inv) {socket : Int} (hs : 0 ≤ socket)
    (hs' : socket < 2 ^ 31) (hfree : socket ∉ st.ctx.sockets) (malloc : Option Addr) :
    (st.onConnect socket malloc).Inv := by
  have hctx : ∃ ctx, (st.onConnect socket malloc).ctx = ctx ∧
      ctx.pushServices = st.ctx.pushServices ∧ ctx.requests = st.ctx.requests ∧
      (ctx.sockets = st.ctx.sockets ∨ ctx.sockets = socket :: st.ctx.sockets) := by
    by_cases hadmits : st.ctx.admits = true
    · obtain ⟨h₁, h₂, h₃⟩ := japiAddClient_cases malloc st.ctx socket
      exact ⟨_, if_pos hadmits, h₁, h₂, h₃⟩
    · exact ⟨_, if_neg hadmits, rfl, rfl, .inl rfl⟩
  obtain ⟨ctx, heq, hservices, hrequests, hsockets⟩ := hctx
  have hsub : ∀ s ∈ st.ctx.sockets, s ∈ ctx.sockets := by
    intro s h
    rcases hsockets with h' | h' <;> simp [h', h]
  refine ⟨⟨?_, by simp [onConnect], by simp [onConnect]⟩, ?_, ?_, ?_⟩
  · rw [heq, hservices]
    exact fun psc hpsc s h => hsub s (hi.connected psc hpsc s h)
  · rw [heq, hservices]
    intro psc hpsc s h
    -- an entry is the socket of a client, so not the new one
    have hne : s ≠ socket := by
      rintro rfl
      exact hfree (hi.connected psc hpsc s h)
    show (Function.update st.conn socket st.conns s, psc.addr) ∈ st.joined
    rw [Function.update_of_ne hne]
    exact hi.joins psc hpsc s h
  · rw [heq]
    intro s h
    rcases hsockets with h' | h'
    · exact hi.fds s (h' ▸ h)
    · rw [h'] at h
      rcases List.mem_cons.mp h with rfl | hold
      · exact ⟨hs, hs'⟩
      · exact hi.fds s hold
  · rw [Registry, heq, hrequests]
    exact hi.registry

theorem Inv.request {P : Program} (hP : Tame P) {st : Subscriptions} (hi : st.Inv) {socket : Int}
    (hsocket : socket ∈ st.ctx.sockets) {text : CStr} {mem : Mem} {stale : Option CStr}
    {out : Outcome} (hout : japiProcessMessage P mem stale st.ctx st.heap text socket = .ok out) :
    (st.onRequest socket out).Inv := by
  obtain ⟨hs, hs'⟩ := hi.fds socket hsocket
  obtain ⟨hclients, hreg, hlists⟩ := japiProcessMessage_lists hP hi.registry hs hs' hout
  have hsockets : out.ctx.sockets = st.ctx.sockets := by
    rw [JapiContext.sockets, hclients]
    rfl
  refine ⟨⟨?_, by simp [onRequest], by simp [onRequest]⟩,
    ?_, fun s h => hi.fds s (hsockets ▸ h), hreg⟩
  · intro psc hpsc s h
    show s ∈ out.ctx.sockets
    rw [hsockets]
    rcases hlists psc hpsc s h with ⟨p, hp, -, hold⟩ | ⟨rfl, -⟩
    · exact hi.connected p hp s hold
    · exact hsocket
  · intro psc hpsc s h
    show (st.conn s, psc.addr) ∈ (out.joined.map fun a => (st.conn socket, a)).toList ++ st.joined
    rcases hlists psc hpsc s h with ⟨p, hp, haddr, hold⟩ | ⟨rfl, hjoined⟩
    · rw [← haddr]
      exact List.mem_append_right _ (hi.joins p hp s hold)
    · simp [hjoined]

theorem Inv.sendmsg {st : Subscriptions} (hi : st.Inv) {psc : JapiPushsrvContext}
    (hpsc : psc ∈ st.ctx.pushServices) (writeN : Nat → Int) : (st.onSendmsg psc writeN).Inv := by
  -- sending drops entries
  have hentry : ∀ p ∈ (st.onSendmsg psc writeN).ctx.pushServices, ∀ s ∈ p.clients,
      ∃ q ∈ st.ctx.pushServices, q.addr = p.addr ∧ s ∈ q.clients := by
    intro p hp s hs
    obtain ⟨q, hq, rfl⟩ := List.mem_map.mp hp
    refine ⟨q, hq, ?_⟩
    split at hs
    · rename_i haddr
      rw [if_pos haddr]
      exact ⟨rfl, (sendLoop_subset writeN 0 q.clients q.clients).1 s hs⟩
    · rename_i haddr
      rw [if_neg haddr]
      exact ⟨rfl, hs⟩
  refine ⟨⟨?_, by simp [onSendmsg], ?_⟩, ?_, hi.fds,
    hi.registry⟩
  · intro p hp s hs
    obtain ⟨q, hq, -, hold⟩ := hentry p hp s hs
    exact hi.connected q hq s hold
  · intro d hd
    obtain ⟨s, hs, rfl⟩ := List.mem_map.mp hd
    exact hi.joins psc hpsc s ((sendLoop_subset writeN 0 psc.clients psc.clients).2 s hs)
  · intro p hp s hs
    obtain ⟨q, hq, haddr, hold⟩ := hentry p hp s hs
    rw [← haddr]
    exact hi.joins q hq s hold

theorem mem_sockets_removed {ctx : JapiContext} {socket s : Int} :
    (s ∈ ctx.sockets → s ≠ socket → s ∈ (japiRemoveClient ctx socket).ctx.sockets) ∧
      (s ∈ (japiRemoveClient ctx socket).ctx.sockets → s ∈ ctx.sockets) := by
  rcases japiRemoveClient_cases ctx socket with ⟨pre, c, post, hl, hc, -, heq⟩ | ⟨-, heq⟩
  · rw [heq]
    simp only [JapiContext.sockets, hl, List.map_append, List.map_cons, List.mem_append,
      List.mem_cons, hc]
    tauto
  · rw [heq]
    exact ⟨fun h _ => h, fun h => h⟩

theorem Inv.disconnect {st : Subscriptions} (hi : st.Inv) {socket : Int}
    (honce : st.Once (.disconnect socket)) : (st.onDisconnect socket).Inv := by
  -- one entry was taken out, and there was no other
  have hentry : ∀ p ∈ (st.onDisconnect socket).ctx.pushServices, ∀ s ∈ p.clients,
      s ≠ socket ∧ ∃ q ∈ st.ctx.pushServices, q.addr = p.addr ∧ s ∈ q.clients := by
    intro p hp s hs
    have hp' : p ∈ (japiRemoveClient st.ctx socket).ctx.pushServices := hp
    rw [japiRemoveClient_pushServices] at hp'
    obtain ⟨q, hq, rfl⟩ := List.mem_map.mp hp'
    refine ⟨?_, q, hq, rfl, List.mem_of_mem_erase hs⟩
    rintro rfl
    have hcount := List.count_pos_iff.mpr hs
    rw [List.count_erase_self] at hcount
    have := honce q hq
    omega
  have hsub : ∀ s, s ∈ (japiRemoveClient st.ctx socket).ctx.sockets → s ∈ st.ctx.sockets :=
    fun s => mem_sockets_removed.2
  refine ⟨⟨?_, ?_, by simp [onDisconnect]⟩,
    ?_, fun s hs => hi.fds s (hsub s hs), ?_⟩
  · intro p hp s hs
    obtain ⟨hne, q, hq, -, hold⟩ := hentry p hp s hs
    exact mem_sockets_removed.1 (hi.connected q hq s hold) hne
  · intro s hs p hp hmem
    obtain ⟨hne, -⟩ := hentry p hp s hmem
    simp only [onDisconnect, Option.mem_def, Option.ite_none_right_eq_some,
      Option.some.injEq] at hs
    exact hne hs.2.symm
  · intro p hp s hs
    obtain ⟨-, q, hq, haddr, hold⟩ := hentry p hp s hs
    rw [← haddr]
    exact hi.joins q hq s hold
  · have hrequests : (japiRemoveClient st.ctx socket).ctx.requests = st.ctx.requests := by
      rcases japiRemoveClient_cases st.ctx socket with ⟨_, _, _, -, -, -, heq⟩ | ⟨-, heq⟩ <;>
        rw [heq] <;> rfl
    intro req hreq
    exact hi.registry req (hrequests ▸ hreq)

/-- What a call leads to, and what it needs. -/
inductive Stepped (P : Program) (st : Subscriptions) : Call → Subscriptions → Prop
  | register {malloc : Option Addr} (pushsrvName : Option CStr)
      (hfresh : ∀ a ∈ malloc, a ∉ st.ctx.pushServices.map JapiPushsrvContext.addr) :
      Stepped P st (.register malloc pushsrvName) { st with
        ctx := (japiPushsrvRegister malloc st.ctx pushsrvName).2, sent := [], removed := none }
  | connect {socket : Int} (malloc : Option Addr) (hs : 0 ≤ socket) (hs' : socket < 2 ^ 31)
      (hfree : socket ∉ st.ctx.sockets) :
      Stepped P st (.connect socket malloc) (st.onConnect socket malloc)
  | request {socket : Int} {text : CStr} {mem : Mem} {stale : Option CStr} {out : Outcome}
      (hsocket : socket ∈ st.ctx.sockets)
      (hout : japiProcessMessage P mem stale st.ctx st.heap text socket = .ok out) :
      Stepped P st (.request socket text mem stale) (st.onRequest socket out)
  | sendmsg {p : JapiPushsrvContext} (writeN : Nat → Int) (hp : p ∈ st.ctx.pushServices) :
      Stepped P st (.sendmsg p.addr writeN) (st.onSendmsg p writeN)
  | disconnect {socket : Int} (hs : 0 ≤ socket) :
      Stepped P st (.disconnect socket) (st.onDisconnect socket)

theorem stepped {P : Program} {st st' : Subscriptions} {call : Call}
    (h : step P st call = some st') : Stepped P st call st' := by
  cases call with
  | register malloc pushsrvName =>
      obtain ⟨hfresh, heq⟩ := Option.ite_none_right_eq_some.mp h
      cases heq
      exact .register pushsrvName hfresh
  | connect socket malloc =>
      obtain ⟨⟨hs, hs', hfree⟩, heq⟩ := Option.ite_none_right_eq_some.mp h
      cases heq
      exact .connect malloc hs hs' hfree
  | request socket text mem stale =>
      obtain ⟨hsocket, heq⟩ := Option.ite_none_right_eq_some.mp h
      cases hout : japiProcessMessage P mem stale st.ctx st.heap text socket with
      | error e => simp [hout] at heq
      | ok out =>
          simp only [hout, Option.some.injEq] at heq
          cases heq
          exact .request hsocket hout
  | sendmsg psc writeN =>
      obtain ⟨p, hp, heq⟩ := Option.map_eq_some_iff.mp h
      cases heq
      obtain rfl : p.addr = psc := by simpa using List.find?_some hp
      exact .sendmsg writeN (List.mem_of_find?_eq_some hp)
  | disconnect socket =>
      obtain ⟨hs, heq⟩ := Option.ite_none_right_eq_some.mp h
      cases heq
      exact .disconnect hs

theorem Inv.step {P : Program} (hP : Tame P) {st st' : Subscriptions} {call : Call} (hi : st.Inv)
    (honce : st.Once call) (h : step P st call = some st') : st'.Inv := by
  cases stepped h with
  | register pushsrvName hfresh => exact hi.register _ pushsrvName
  | connect malloc hs hs' hfree => exact hi.connect hs hs' hfree malloc
  | request hsocket hout => exact hi.request hP hsocket hout
  | sendmsg writeN hp => exact hi.sendmsg hp writeN
  | disconnect hs => exact hi.disconnect honce

/-- A client that is removed while it is in a list twice leaves an entry behind. -/
theorem Good.once {P : Program} {st st' : Subscriptions} {call : Call} (hg : st.Good)
    (h : Subscriptions.step P st call = some st') (hg' : st'.Good) : st.Once call := by
  cases stepped h with
  | @disconnect socket hs =>
      intro psc hpsc
      by_contra htwice
      have hmem : socket ∈ psc.clients := List.count_pos_iff.mp (by omega)
      have hleft : socket ∈ psc.clients.erase socket := by
        refine List.count_pos_iff.mp ?_
        rw [List.count_erase_self]
        omega
      have hret : (japiRemoveClient st.ctx socket).ret = 0 := by
        rcases japiRemoveClient_cases st.ctx socket with ⟨_, _, _, -, -, -, heq⟩ | ⟨hno, -⟩
        · rw [heq]
        · exact absurd (hg.connected psc hpsc socket hmem) hno
      refine hg'.removed socket ?_ { psc with clients := psc.clients.erase socket } ?_ hleft
      · simp [onDisconnect, hret]
      · show _ ∈ (japiRemoveClient st.ctx socket).ctx.pushServices
        rw [japiRemoveClient_pushServices]
        exact List.mem_map.mpr ⟨psc, hpsc, rfl⟩
  | _ => trivial

/-! ## Runs -/

/-- **The lists are good in every state of a run exactly if** no client is
removed that is in a list twice. -/
theorem run_subscribers_iff {P : Program} (hP : Tame P) (calls : List (Option CStr × Option Nat))
    (maxClients : UInt16) (includeArgs : Bool) {es : List Call} {st : Subscriptions}
    (hrun : run (step P) (start calls maxClients includeArgs) es = some st) :
    (∀ es₁ es₂ st₁, es = es₁ ++ es₂ →
        run (step P) (start calls maxClients includeArgs) es₁ = some st₁ → st₁.Good) ↔
      Meets (step P) Once (start calls maxClients includeArgs) es := by
  exact run_good_iff Inv.toGood (fun hi honce h => Inv.step hP hi honce h)
    (fun hi h hg => hi.toGood.once h hg) (inv_start calls maxClients includeArgs) hrun

/-- A subscription to the service `temperature`. -/
def subscribeText : CStr :=
  lit ("\x7b\"japi_request\":\"japi_pushsrv_subscribe\"," ++
    "\"args\":\x7b\"service\":\"temperature\"\x7d\x7d")

/-- What json-c makes of it. -/
def subscribeTemperature : JsonC :=
  .table [(subscribeText,
    .object [(lit "japi_request", .string (lit "japi_pushsrv_subscribe").bytes),
      (lit "args", .object [(lit "service", .string (lit "temperature").bytes)])])]

/-- The client of socket 5 subscribes, `n` times, and is removed. -/
def subscribeTimes (n : Nat) : List Call :=
  [.register (some 1) (some (lit "temperature")), .connect 5 (some 2)] ++
    List.replicate n (.request 5 subscribeText ⟨true, true⟩ none) ++ [.disconnect 5]

theorem tame_idle (J : JsonC) : Tame (Program.idle J) where
  clients _ _ _ _ _ := rfl
  lists _ _ _ _ _ _ := ListsStep.refl _ _ _
  requests _ _ _ _ _ _ hreq := .inl hreq

theorem run_subscribers_iff_once :
    ∃ st, run (step (Program.idle subscribeTemperature)) (start [] 0 false) (subscribeTimes 1)
        = some st ∧ st.removed = some 5 ∧ st.Good := by
  have hsome : (run (step (Program.idle subscribeTemperature)) (start [] 0 false)
      (subscribeTimes 1)).map removed = some (some 5) := by decide +kernel
  obtain ⟨st, hrun, hremoved⟩ := Option.map_eq_some_iff.mp hsome
  have hmeets : Meets (step (Program.idle subscribeTemperature)) Once (start [] 0 false)
      (subscribeTimes 1) := by decide +kernel
  exact ⟨st, hrun, hremoved,
    (run_subscribers_iff (tame_idle _) [] 0 false hrun).mpr hmeets _ [] st (by simp) hrun⟩

/-- After two subscriptions socket 5 stays in the list; the next client with the
number 5 is sent the messages of a service it never joined. -/
theorem subscribedTwice_stale :
    (∃ st, run (step (Program.idle subscribeTemperature)) (start [] 0 false) (subscribeTimes 2)
        = some st ∧ st.removed = some 5 ∧ 5 ∉ st.ctx.sockets ∧
        ∃ psc ∈ st.ctx.pushServices, 5 ∈ psc.clients) ∧
      ∃ st, run (step (Program.idle subscribeTemperature)) (start [] 0 false)
        (subscribeTimes 2 ++ [.connect 5 (some 2), .sendmsg 1 fun _ => 1]) = some st ∧
        st.sent = [(1, 1)] ∧ st.joined = [(0, 1), (0, 1)] := by
  refine ⟨?_, ?_⟩
  · have hsome : (run (step (Program.idle subscribeTemperature)) (start [] 0 false)
        (subscribeTimes 2)).map (fun st => (st.removed, st.ctx.sockets, st.ctx.pushServices))
          = some (some 5, [], [⟨1, lit "temperature", [5]⟩]) := by decide +kernel
    obtain ⟨st, hrun, heq⟩ := Option.map_eq_some_iff.mp hsome
    simp only [Prod.mk.injEq] at heq
    obtain ⟨hremoved, hsockets, hservices⟩ := heq
    refine ⟨st, hrun, hremoved, ?_, ?_⟩
    · rw [hsockets]
      simp
    · rw [hservices]
      simp
  · have hsome : (run (step (Program.idle subscribeTemperature)) (start [] 0 false)
        (subscribeTimes 2 ++ [.connect 5 (some 2), .sendmsg 1 fun _ => 1])).map
          (fun st => (st.sent, st.joined)) = some ([(1, 1)], [(0, 1), (0, 1)]) := by decide +kernel
    obtain ⟨st, hrun, heq⟩ := Option.map_eq_some_iff.mp hsome
    exact ⟨st, hrun, congrArg Prod.fst heq, congrArg Prod.snd heq⟩

end Subscriptions

end Libjapi
